-- SUMMARY: What `detect` returns: one detection for each row of the tensors above the threshold, in order.
import AtomRust.Pipeline.TFLiteStage

/-!
# Rows

The first three output tensors are read as a table: row `i` has the four coordinates of a
detection, its class and its score. A row that one of the tensors is too short for is
not there.
-/

open Tflite (Failure Outputs unwrap)

namespace TFLiteStage
variable {F : Type}

/-- A row of the output tensors. -/
structure Row (F : Type) where
  ymin : F
  xmin : F
  ymax : F
  xmax : F
  classNum : F
  score : F

def rowAt (outputs : Outputs F) (index : ℕ) : Option (Row F) := do
  let ymin ← outputs.locations[4 * index]?
  let xmin ← outputs.locations[4 * index + 1]?
  let ymax ← outputs.locations[4 * index + 2]?
  let xmax ← outputs.locations[4 * index + 3]?
  let classNum ← outputs.classes[index]?
  let score ← outputs.scores[index]?
  return { ymin, xmin, ymax, xmax, classNum, score }

/-- The rows that are there, of the first `count`. -/
def rows (outputs : Outputs F) (count : ℕ) : List (Row F) :=
  (List.range count).filterMap (rowAt outputs)

/-- The label of a row, or a question mark. -/
def label (R : F32 F) (stage : TFLiteStage F) (row : Row F) : String :=
  (stage.labels.lookup (R.toI32 row.classNum)).getD "?"

/-- The row is above the threshold. -/
def counts (R : F32 F) (stage : TFLiteStage F) (row : Row F) : Bool :=
  R.gt row.score stage.threshold

/-- The detection that a row stands for. -/
def detection (R : F32 F) (stage : TFLiteStage F) (row : Row F) : Detection F :=
  box R stage row.ymin row.xmin row.ymax row.xmax row.score (label R stage row)

variable {R : F32 F} {stage : TFLiteStage F} {outputs : Outputs F} {index n count : ℕ}
  {rgbBytes : List UInt8}

theorem className_eq (stage : TFLiteStage F) (classNum : ℤ) :
    stage.className classNum = .ok ((stage.labels.lookup classNum).getD "?") := by
  have hhas : stage.labels.has classNum = (stage.labels.lookup classNum).isSome := rfl
  rw [className, hhas]
  cases stage.labels.lookup classNum <;> rfl

theorem rowAt_eq_none (h : ¬ InRange outputs index) : rowAt outputs index = none := by
  by_contra hsome
  obtain ⟨row, hrow⟩ := Option.ne_none_iff_exists'.mp hsome
  simp only [rowAt, Option.bind_eq_bind, Option.bind_eq_some_iff] at hrow
  obtain ⟨ymin, -, xmin, -, ymax, -, xmax, hxmax, classNum, hclass, score, hscore, -⟩ := hrow
  exact h ⟨(List.getElem?_eq_some_iff.mp hxmax).1, (List.getElem?_eq_some_iff.mp hclass).1,
    (List.getElem?_eq_some_iff.mp hscore).1⟩

/-- A pass of the loop looks at one row. -/
theorem detectAt_row (R : F32 F) (stage : TFLiteStage F) (h : InRange outputs index) :
    stage.detectAt R outputs index = .ok ((rowAt outputs index).bind fun row =>
      if counts R stage row then some (detection R stage row) else none) := by
  have hlength := h.locations
  have h₀ : 4 * index < outputs.locations.length := by omega
  have h₁ : 4 * index + 1 < outputs.locations.length := by omega
  have h₂ : 4 * index + 2 < outputs.locations.length := by omega
  simp only [detectAt, rowAt, List.getElem?_eq_getElem h₀, List.getElem?_eq_getElem h₁,
    List.getElem?_eq_getElem h₂, List.getElem?_eq_getElem h.locations,
    List.getElem?_eq_getElem h.classes, List.getElem?_eq_getElem h.scores, unwrap, bind,
    Except.bind, className_eq, Option.bind]
  rfl

/-- Rows behind the last one add nothing. -/
theorem filterMap_range {α : Type} {f : ℕ → Option α} (hle : n ≤ count)
    (h : ∀ index, n ≤ index → index < count → f index = none) :
    (List.range count).filterMap f = (List.range n).filterMap f := by
  obtain ⟨k, rfl⟩ := Nat.exists_eq_add_of_le hle
  have hbehind : ((List.range k).map (n + ·)).filterMap f = [] := by
    rw [List.filterMap_eq_nil_iff]
    intro index hindex
    obtain ⟨i, hi, rfl⟩ := List.mem_map.mp hindex
    have hlt := List.mem_range.mp hi
    exact h _ (by omega) (by omega)
  rw [List.range_add, List.filterMap_append, hbehind, List.append_nil]

theorem filterMap_ite {α β : Type} (p : α → Bool) (f : α → β) (as : List α) :
    (as.filterMap fun a => if p a then some (f a) else none) = (as.filter p).map f := by
  induction as with
  | nil => rfl
  | cons a as ih => cases hp : p a <;> simp [hp, ih]

/-- Once the tensors are read, the loop goes through the rows. -/
theorem detect_rows {raw : F} {rest : List F} (hread : stage.readOutputs rgbBytes = .ok outputs)
    (hcount : outputs.rawNumDetections = raw :: rest) :
    stage.detect R rgbBytes = .ok (((rows outputs (R.toUsize raw)).filter (stage.counts R)).map
      (stage.detection R)) := by
  obtain ⟨n, hn, hindices⟩ := numDetections_eq (R := R) hcount
  have hpasses : ∀ index < n, stage.detectAt R outputs index = _ :=
    fun index hindex => detectAt_row R stage ((hindices index).mp hindex).2
  have hloop := Except.foldlM_filterMap hpasses
  have hrows : rows outputs (R.toUsize raw) = (List.range n).filterMap (rowAt outputs) := by
    refine filterMap_range ?_ fun index hle hlt => rowAt_eq_none fun hrange => ?_
    · by_contra hlt
      have hcut := ((hindices (R.toUsize raw)).mp (by omega)).1
      omega
    · have hmem := (hindices index).mpr ⟨hlt, hrange⟩
      omega
  rw [← List.filterMap_filterMap, filterMap_ite, ← hrows] at hloop
  simp only [detect, hread, hn, bind, Except.bind]
  exact hloop

/-- The first count is not there. -/
theorem detect_nil (hread : stage.readOutputs rgbBytes = .ok outputs)
    (hcount : outputs.rawNumDetections = []) : stage.detect R rgbBytes = .error .panic := by
  simp [detect, hread, numDetections, hcount, unwrap, bind, Except.bind]

/-- What `detect` returns, whatever the tensors hold: the detections of the rows above the
threshold, in their order. Reading the tensors does not panic, so that `detect` panics
exactly if the model does not count its detections. -/
theorem detect_eq (R : F32 F) (stage : TFLiteStage F) (rgbBytes : List UInt8) :
    (stage.detect R rgbBytes = (stage.readOutputs rgbBytes).bind fun outputs =>
      match outputs.rawNumDetections with
      | [] => .error .panic
      | raw :: _ => .ok (((rows outputs (R.toUsize raw)).filter (stage.counts R)).map
          (stage.detection R))) ∧
    stage.readOutputs rgbBytes ≠ .error .panic ∧
    (stage.detect R rgbBytes = .error .panic ↔
      ∃ outputs, stage.readOutputs rgbBytes = .ok outputs ∧ outputs.rawNumDetections = []) := by
  refine ⟨?_, readOutputs_ne_panic stage rgbBytes, ?_, ?_⟩
  · cases hread : stage.readOutputs rgbBytes with
    | error e => simp only [detect, hread, bind, Except.bind]
    | ok outputs =>
        cases hcount : outputs.rawNumDetections with
        | nil => simp only [detect_nil hread hcount, Except.bind, hcount]
        | cons raw rest => simp only [detect_rows hread hcount, Except.bind, hcount]
  · intro hpanic
    by_contra hnot
    refine detect_ne_panic (fun outputs hread hcount => ?_) hpanic
    exact hnot ⟨outputs, hread, hcount⟩
  · rintro ⟨outputs, hread, hcount⟩
    exact detect_nil hread hcount

/-- The number of rows above the threshold whose label is one of `classes`. -/
def rowsOf (R : F32 F) (stage : TFLiteStage F) (rs : List (Row F)) (classes : List String) : ℕ :=
  rs.countP fun row => stage.counts R row && label R stage row ∈ classes

theorem countP_detections (rs : List (Row F)) (classes : List String) :
    ((rs.filter (stage.counts R)).map (stage.detection R)).countP
      (fun det => det.className ∈ classes) = rowsOf R stage rs classes := by
  rw [List.countP_map, List.countP_filter, rowsOf]
  congr
  funext row
  exact Bool.and_comm _ _

theorem exists_detections {raw : F} {rest : List F}
    (hread : stage.readOutputs rgbBytes = .ok outputs)
    (hcount : outputs.rawNumDetections = raw :: rest) :
    ∃ dets, stage.detect R rgbBytes = .ok dets ∧
      dets.length = (rows outputs (R.toUsize raw)).countP (stage.counts R) ∧
      ∀ classes, dets.countP (fun det => det.className ∈ classes) =
        rowsOf R stage (rows outputs (R.toUsize raw)) classes := by
  refine ⟨_, detect_rows hread hcount, ?_, countP_detections _⟩
  rw [List.length_map, List.countP_eq_length_filter]

/-- The second row is below the threshold, and the third is not there. -/
example : rowsOf rationals (single []) (rows
    { locations := [0, 0, 1, 1, 0, 0, 1, 1], classes := [0, 0, 0], scores := [1, 1 / 4, 1],
      rawNumDetections := [3] } 3) ["?"] = 1 := by decide +kernel

end TFLiteStage
