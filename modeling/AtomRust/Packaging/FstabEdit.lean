-- SUMMARY: What `fstab_boot_opt` does to the fields of an fstab, and whether `rw` undoes `ro`.
import AtomRust.Base.Fields
import AtomRust.Packaging.Fstab

/-!
# Undoing the fstab edit

The `rw` mode takes every `ro` away, whether `ro` mode has put it there or not. If it was
the only option, the field is left empty, and the columns behind it move up.
-/

open Fields (fields_intercalate ne_nil_of_mem_fields not_of_mem_fields of_mem_intercalate
  of_mem_splitOnP)

namespace Fstab
variable {line field : Line} {file options : List Line} {mode : Mode}

/-! ## The option field -/

/-- The options joined, without the empty ones at the beginning. -/
theorem foldl_join (options : List Line) :
    options.foldl (fun opts o => opts ++ (if opts = [] then [] else [',']) ++ o) [] =
      [','].intercalate (options.dropWhile (· = [])) := by
  have hjoin : ∀ (options : List Line) (opts : Line), opts ≠ [] →
      options.foldl (fun opts o => opts ++ (if opts = [] then [] else [',']) ++ o) opts =
        [','].intercalate (opts :: options) := by
    intro options
    induction options with
    | nil => intro opts _; exact List.intercalate_singleton.symm
    | cons o options ih =>
        intro opts hopts
        rw [List.foldl_cons, if_neg hopts, ih _ (by simp [hopts])]
        cases options <;> simp [List.intercalate_cons_cons]
  induction options with
  | nil => rfl
  | cons o options ih =>
      by_cases ho : o = []
      · subst ho
        exact ih
      · rw [List.dropWhile_cons_of_neg (by simpa using ho), List.foldl_cons]
        exact hjoin options o ho

/-- The options that `withoutRo` joins. -/
def kept (options : List Line) : List Line :=
  (options.filter (· ≠ roOption)).dropWhile (· = [])

theorem withoutRo_eq (options : List Line) :
    withoutRo options = [','].intercalate (kept options) :=
  foldl_join _

theorem of_mem_kept {o : Line} (h : o ∈ kept options) : o ∈ options ∧ o ≠ roOption := by
  have hfilter := List.mem_filter.mp ((List.dropWhile_suffix _).subset h)
  exact ⟨hfilter.1, of_decide_eq_true hfilter.2⟩

theorem kept_append_ro (options : List Line) :
    kept (kept options ++ [roOption]) = kept options := by
  have hkept : (kept options).filter (· ≠ roOption) = kept options :=
    List.filter_eq_self.mpr fun o ho => decide_eq_true (of_mem_kept ho).2
  have hro : [roOption].filter (· ≠ roOption) = [] := by decide
  rw [kept, List.filter_append, hkept, hro, List.append_nil, kept, List.dropWhile_idempotent]

theorem comma_not_mem_of_mem_splitOn {o : Line} (h : o ∈ field.splitOn ',') : ',' ∉ o := by
  intro hmem
  have hfalse := (of_mem_splitOnP h ',' hmem).2
  simp at hfalse

/-- `withoutRo` leaves options that are separated again, or nothing. -/
theorem splitOn_withoutRo (h : ∀ o ∈ options, ',' ∉ o) :
    withoutRo options = [] ∨ (withoutRo options).splitOn ',' = kept options := by
  rw [withoutRo_eq]
  cases hkept : kept options with
  | nil => exact .inl rfl
  | cons o os =>
      right
      apply List.splitOn_intercalate
      · intro l hl
        exact h l (of_mem_kept (hkept ▸ hl)).1
      · simp

/-- No `ro` is left. -/
theorem roOption_not_mem_withoutRo (h : ∀ o ∈ options, ',' ∉ o) :
    roOption ∉ (withoutRo options).splitOn ',' := by
  rcases splitOn_withoutRo h with hnil | hsplit
  · rw [hnil]
    decide
  · rw [hsplit]
    exact fun hmem => (of_mem_kept hmem).2 rfl

theorem splitOn_append_ro (opts : Line) :
    (opts ++ ',' :: roOption).splitOn ',' = opts.splitOn ',' ++ [roOption] :=
  List.splitOn_append_cons_self ..

theorem roOption_mem_newOptions (field : Line) :
    roOption ∈ (newOptions .ro field).splitOn ',' := by
  unfold newOptions
  simp only
  split
  next h => exact h
  next => simp [splitOn_append_ro]

theorem newOptions_of_mem (h : roOption ∈ field.splitOn ',') : newOptions .ro field = field :=
  if_pos h

theorem newOptions_of_not_mem (h : roOption ∉ field.splitOn ',') :
    newOptions .ro field = withoutRo (field.splitOn ',') ++ ',' :: roOption :=
  if_neg h

/-- `rw` mode after `ro` mode does what it does alone. -/
theorem newOptions_rw_ro (h : roOption ∉ field.splitOn ',') :
    newOptions .rw (newOptions .ro field) = withoutRo (field.splitOn ',') := by
  have hcomma : ∀ o ∈ field.splitOn ',', ',' ∉ o := fun o => comma_not_mem_of_mem_splitOn
  rw [newOptions_of_not_mem h]
  show withoutRo ((withoutRo (field.splitOn ',') ++ ',' :: roOption).splitOn ',') = _
  rw [splitOn_append_ro]
  rcases splitOn_withoutRo hcomma with hnil | hsplit
  · rw [hnil]
    rfl
  · rw [hsplit, withoutRo_eq, kept_append_ro, withoutRo_eq]

theorem head?_splitOn (hfield : field ≠ []) :
    (field.splitOn ',').head? = some [] ↔ field.head? = some ',' := by
  cases field with
  | nil => exact absurd rfl hfield
  | cons c field =>
      rw [List.splitOn_cons_eq_if_modifyHead]
      by_cases hc : c = ','
      · simp [hc]
      · cases hsplit : field.splitOn ',' with
        | nil => exact absurd hsplit (List.splitOn_ne_nil ',' field)
        | cons o os => simp [hc]

/-- `rw` mode gives the field back after `ro` mode just if `ro` was not in it, and it did
not begin with a comma. -/
theorem newOptions_newOptions_iff (hfield : field ≠ []) :
    newOptions .rw (newOptions .ro field) = field ↔
      roOption ∉ field.splitOn ',' ∧ field.head? ≠ some ',' := by
  have hcomma : ∀ o ∈ field.splitOn ',', ',' ∉ o := fun o => comma_not_mem_of_mem_splitOn
  by_cases h : roOption ∈ field.splitOn ','
  · rw [newOptions_of_mem h]
    refine iff_of_false (fun heq => ?_) fun hnot => hnot.1 h
    have hnone := roOption_not_mem_withoutRo hcomma
    rw [show withoutRo (field.splitOn ',') = field from heq] at hnone
    exact hnone h
  · rw [newOptions_rw_ro h, and_iff_right h, ne_eq, ← head?_splitOn hfield]
    have hfilter : (field.splitOn ',').filter (· ≠ roOption) = field.splitOn ',' :=
      List.filter_eq_self.mpr fun o ho => decide_eq_true fun heq => h (heq ▸ ho)
    constructor
    · intro heq hhead
      rcases splitOn_withoutRo hcomma with hnil | hsplit
      · exact hfield (heq.symm.trans hnil)
      · rw [heq, kept, hfilter] at hsplit
        have hnot := List.head?_dropWhile_not (· = []) (field.splitOn ',')
        rw [← hsplit, hhead] at hnot
        simp at hnot
    · intro hhead
      cases hsplit : field.splitOn ',' with
      | nil => exact absurd hsplit (List.splitOn_ne_nil ',' field)
      | cons o os =>
          have ho : o ≠ [] := by
            rintro rfl
            exact hhead (by rw [hsplit]; rfl)
          rw [hsplit] at hfilter
          rw [withoutRo_eq, kept, hfilter, List.dropWhile_cons_of_neg (by simpa using ho), ← hsplit,
            List.intercalate_splitOn]

/-! ## The line -/

/-- What separates the fields of a line. -/
def isBlank (c : Char) : Bool := c = ' ' || c = '\t'

theorem isBlank_withoutRo (h : ∀ c ∈ field, isBlank c = false) :
    ∀ c ∈ withoutRo (field.splitOn ','), isBlank c = false := by
  intro c hc
  rw [withoutRo_eq] at hc
  rcases of_mem_intercalate hc with hc | ⟨o, ho, hc⟩
  · obtain rfl := List.mem_singleton.mp hc
    rfl
  · exact h c (of_mem_splitOnP (of_mem_kept ho).1 c hc).1

theorem isBlank_newOptions (h : ∀ c ∈ field, isBlank c = false) :
    ∀ c ∈ newOptions mode field, isBlank c = false := by
  cases mode with
  | rw => exact isBlank_withoutRo h
  | ro =>
      by_cases hro : roOption ∈ field.splitOn ','
      · rw [newOptions_of_mem hro]
        exact h
      · rw [newOptions_of_not_mem hro]
        intro c hc
        rcases List.mem_append.mp hc with hc | hc
        · exact isBlank_withoutRo h c hc
        · simp only [roOption, List.mem_cons, List.not_mem_nil, or_false] at hc
          rcases hc with rfl | rfl | rfl <;> rfl

theorem optionField_eq {fs : List Line} (hlength : 4 ≤ fs.length) : optionField fs = fs[3] := by
  rw [optionField, List.getD_eq_getElem?_getD, List.getElem?_eq_getElem hlength, Option.getD_some]

theorem optionField_mem (hlength : 4 ≤ (fields line).length) :
    optionField (fields line) ∈ fields line := by
  rw [optionField_eq hlength]
  exact List.getElem_mem hlength

theorem optionField_ne_nil (hlength : 4 ≤ (fields line).length) :
    optionField (fields line) ≠ [] :=
  ne_nil_of_mem_fields (optionField_mem hlength)

theorem setOptions_eq {fs : List Line} (hlength : 4 ≤ fs.length) (opts : Line) :
    setOptions fs opts = fs.set 3 opts := by
  rw [setOptions, Nat.sub_eq_zero_of_le hlength, List.replicate_zero, List.append_nil]

theorem editLine_of_boot (hboot : isBootLine (fields line)) (hlength : 4 ≤ (fields line).length) :
    editLine mode line =
      [' '].intercalate ((fields line).set 3 (newOptions mode (optionField (fields line)))) := by
  rw [editLine, if_pos hboot, setOptions_eq hlength]

theorem editLine_of_not_boot (hboot : isBootLine (fields line) = false) :
    editLine mode line = line := by
  rw [editLine, if_neg (by simp [hboot])]

/-- The fields of a line of the boot partition after the edit. An empty option field is
lost. -/
theorem fields_editLine (hboot : isBootLine (fields line)) (hlength : 4 ≤ (fields line).length) :
    fields (editLine mode line) =
      ((fields line).set 3 (newOptions mode (optionField (fields line)))).filter (· ≠ []) := by
  rw [editLine_of_boot hboot hlength]
  refine fields_intercalate (p := isBlank) rfl fun w hw => ?_
  rcases List.mem_or_eq_of_mem_set hw with hw | rfl
  · exact not_of_mem_fields hw
  · exact isBlank_newOptions (not_of_mem_fields (optionField_mem hlength))

/-- An option field that is not empty is not lost. -/
theorem filter_set_of_ne_nil {fs : List Line} (hfs : ∀ w ∈ fs, w ≠ []) {opts : Line}
    (hopts : opts ≠ []) : (fs.set 3 opts).filter (· ≠ []) = fs.set 3 opts := by
  apply List.filter_eq_self.mpr
  intro w hw
  rcases List.mem_or_eq_of_mem_set hw with hw | rfl
  · exact decide_eq_true (hfs w hw)
  · exact decide_eq_true hopts

/-- The fields come out as they were just if the option field does. -/
theorem filter_set_eq_iff {fs : List Line} (hlength : 4 ≤ fs.length) (hfs : ∀ w ∈ fs, w ≠ [])
    (opts : Line) : (fs.set 3 opts).filter (· ≠ []) = fs ↔ opts = optionField fs := by
  rw [optionField_eq hlength]
  constructor
  · intro h
    by_cases hopts : opts = []
    · have hmem : opts ∈ fs.set 3 opts := List.mem_set hlength opts
      have hlt : ((fs.set 3 opts).filter (· ≠ [])).length < (fs.set 3 opts).length :=
        List.length_filter_lt_length_iff_exists.mpr ⟨opts, hmem, by simp [hopts]⟩
      rw [h, List.length_set] at hlt
      exact absurd hlt (lt_irrefl _)
    · have hget : (fs.set 3 opts)[3]? = fs[3]? := by
        rw [← filter_set_of_ne_nil hfs hopts, h]
      rw [List.getElem?_set_self hlength, List.getElem?_eq_getElem hlength] at hget
      exact Option.some.inj hget
  · rintro rfl
    rw [List.set_getElem_self]
    exact List.filter_eq_self.mpr fun w hw => decide_eq_true (hfs w hw)

theorem isBootLine_set (fs : List Line) (opts : Line) :
    isBootLine (fs.set 3 opts) = isBootLine fs := by
  simp [isBootLine, List.getD_eq_getElem?_getD]

theorem newOptions_ro_ne_nil (field : Line) : newOptions .ro field ≠ [] := by
  intro h
  have hmem := roOption_mem_newOptions field
  rw [h] at hmem
  exact absurd hmem (by decide)

/-! ### After `ro` mode -/

section Ro
variable (hboot : isBootLine (fields line)) (hlength : 4 ≤ (fields line).length)
include hboot hlength

theorem fields_ro :
    fields (editLine .ro line) =
      (fields line).set 3 (newOptions .ro (optionField (fields line))) := by
  rw [fields_editLine hboot hlength]
  exact filter_set_of_ne_nil (fun w => ne_nil_of_mem_fields) (newOptions_ro_ne_nil _)

theorem isBootLine_ro : isBootLine (fields (editLine .ro line)) := by
  rw [fields_ro hboot hlength, isBootLine_set]
  exact hboot

theorem length_ro : 4 ≤ (fields (editLine .ro line)).length := by
  rw [fields_ro hboot hlength, List.length_set]
  exact hlength

theorem optionField_ro :
    optionField (fields (editLine .ro line)) = newOptions .ro (optionField (fields line)) := by
  rw [optionField_eq (length_ro hboot hlength)]
  simp [fields_ro hboot hlength]

/-- `ro` mode changes nothing any more. -/
theorem editLine_ro_ro : editLine .ro (editLine .ro line) = editLine .ro line := by
  rw [editLine_of_boot (isBootLine_ro hboot hlength) (length_ro hboot hlength),
    optionField_ro hboot hlength, newOptions_of_mem (roOption_mem_newOptions _),
    fields_ro hboot hlength, List.set_set, editLine_of_boot hboot hlength]

theorem fields_rw_ro :
    fields (editLine .rw (editLine .ro line)) =
      ((fields line).set 3 (newOptions .rw (newOptions .ro (optionField (fields line))))).filter
        (· ≠ []) := by
  rw [fields_editLine (isBootLine_ro hboot hlength) (length_ro hboot hlength),
    optionField_ro hboot hlength, fields_ro hboot hlength, List.set_set]

theorem fields_rw_ro_eq_iff :
    fields (editLine .rw (editLine .ro line)) = fields line ↔
      roOption ∉ (optionField (fields line)).splitOn ',' ∧
        (optionField (fields line)).head? ≠ some ',' := by
  rw [fields_rw_ro hboot hlength, filter_set_eq_iff hlength fun w => ne_nil_of_mem_fields,
    newOptions_newOptions_iff (optionField_ne_nil hlength)]

end Ro

/-! ## The file -/

section File
variable (hlength : ∀ line ∈ file, isBootLine (fields line) → 4 ≤ (fields line).length)
include hlength

theorem bootOpt_ro_ro : bootOpt .ro (bootOpt .ro file) = bootOpt .ro file := by
  rw [bootOpt, bootOpt, List.map_map, List.map_inj_left]
  intro line hline
  cases hboot : isBootLine (fields line) with
  | true => exact editLine_ro_ro hboot (hlength line hline hboot)
  | false => rw [Function.comp_apply, editLine_of_not_boot hboot, editLine_of_not_boot hboot]

/-- The fields of a file come back just if those of its lines for the boot partition do. -/
theorem map_fields_rw_ro_eq_iff :
    (bootOpt .rw (bootOpt .ro file)).map fields = file.map fields ↔
      ∀ line ∈ file, isBootLine (fields line) →
        roOption ∉ (optionField (fields line)).splitOn ',' ∧
          (optionField (fields line)).head? ≠ some ',' := by
  rw [bootOpt, bootOpt, List.map_map, List.map_map, List.map_inj_left]
  constructor
  · intro h line hline hboot
    exact (fields_rw_ro_eq_iff hboot (hlength line hline hboot)).mp (h line hline)
  · intro h line hline
    cases hboot : isBootLine (fields line) with
    | true =>
        exact (fields_rw_ro_eq_iff hboot (hlength line hline hboot)).mpr (h line hline hboot)
    | false =>
        rw [Function.comp_apply, Function.comp_apply, editLine_of_not_boot hboot,
          editLine_of_not_boot hboot]

end File

/-! ### What the fields determine -/

/-- The fields of a line after the edit, from those before it. -/
def editFields (mode : Mode) (fs : List Line) : List Line :=
  if isBootLine fs then
    fields ([' '].intercalate (setOptions fs (newOptions mode (optionField fs))))
  else fs

theorem fields_editLine_eq (mode : Mode) (line : Line) :
    fields (editLine mode line) = editFields mode (fields line) := by
  unfold editLine editFields
  simp only
  split <;> rfl

/-- Files with the same fields have the same fields after the edit. -/
theorem map_fields_bootOpt (mode : Mode) (file : List Line) :
    (bootOpt mode file).map fields = (file.map fields).map (editFields mode) := by
  simp [bootOpt, fields_editLine_eq]

/-- `rw` mode leaves a line alone that `ro` mode has not edited. -/
theorem fields_rw (hboot : isBootLine (fields line)) (hlength : 4 ≤ (fields line).length)
    (hro : roOption ∉ (optionField (fields line)).splitOn ',')
    (hcomma : (optionField (fields line)).head? ≠ some ',') :
    fields (editLine .rw line) = fields line := by
  have hback := (newOptions_newOptions_iff (optionField_ne_nil hlength)).mpr ⟨hro, hcomma⟩
  have hsame : newOptions .rw (optionField (fields line)) = optionField (fields line) :=
    (newOptions_rw_ro hro).symm.trans hback
  rw [fields_editLine hboot hlength, filter_set_eq_iff hlength fun w => ne_nil_of_mem_fields]
  exact hsame

/-- `ro` mode can be repeated and undone, and leaves the other lines alone. -/
structure Undone (file : List Line) : Prop where
  idempotent : bootOpt .ro (bootOpt .ro file) = bootOpt .ro file
  ro : ∀ line ∈ file, isBootLine (fields line) →
    roOption ∈ (optionField (fields (editLine .ro line))).splitOn ','
  others : ∀ mode (i : Nat) line, file[i]? = some line → isBootLine (fields line) = false →
    (bootOpt mode file)[i]? = some line
  fields : (bootOpt .rw (bootOpt .ro file)).map fields = file.map fields

/-- The edit is undone if and only if no line of the boot partition has `ro` among its
options, or an empty option in front. -/
theorem undone_iff (hlength : ∀ line ∈ file, isBootLine (fields line) → 4 ≤ (fields line).length) :
    Undone file ↔ ∀ line ∈ file, isBootLine (fields line) →
      roOption ∉ (optionField (fields line)).splitOn ',' ∧
        (optionField (fields line)).head? ≠ some ',' := by
  rw [← map_fields_rw_ro_eq_iff hlength]
  constructor
  · exact Undone.fields
  · intro hfields
    refine
      { idempotent := bootOpt_ro_ro hlength
        ro := ?_
        others := ?_
        fields := hfields }
    · intro line hline hboot
      rw [optionField_ro hboot (hlength line hline hboot)]
      exact roOption_mem_newOptions _
    · intro mode i line hi hboot
      rw [bootOpt, List.getElem?_map, hi, Option.map_some, editLine_of_not_boot hboot]

/-- The line of the boot partition with the given options. -/
def bootLine (opts : Line) : Line := 'p' :: ' ' :: boot ++ [' ', 'v', 'f', 'a', 't', ' '] ++ opts

theorem undone_iff_defaults :
    (∀ line ∈ [bootLine ['d', 'e', 'f']], isBootLine (fields line) → 4 ≤ (fields line).length) ∧
      Undone [bootLine ['d', 'e', 'f']] := by
  have hlength : ∀ line ∈ [bootLine ['d', 'e', 'f']],
      isBootLine (fields line) → 4 ≤ (fields line).length := by decide
  exact ⟨hlength, (undone_iff hlength).mpr (by decide)⟩

/-- An fstab whose boot partition is mounted read-only anyway. -/
theorem not_undone_readOnly :
    fields (editLine .rw (editLine .ro (bootLine roOption))) =
        [['p'], boot, ['v', 'f', 'a', 't']] ∧ ¬ Undone [bootLine roOption] := by
  refine ⟨by decide, fun h => ?_⟩
  exact absurd h.fields (by decide)

end Fstab
