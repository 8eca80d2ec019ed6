-- SUMMARY: `TFLiteStage::detect`: the boxes that are made of the output tensors, and which of them lie in the frame.
import AtomRust.Base.Fallible
import AtomRust.Base.Rounding
import AtomRust.Pipeline.LabelParser
import AtomRust.Pipeline.Summarize

/-!
# Detection

The model says where the boxes are, in units of the frame. Of each side only the half that
points away from the box is put right: the lower corner is not less than 0, the upper one
not past the end.

The TFLite crate is not part of this repository. An `Interpreter` is any answer it could
give.
-/

open Tflite (Error)

/-- What is used of `f32`. The numbers of a frame's size are rounded, and `as i32` cuts
what is too large. -/
structure F32 (F : Type) where
  mul : F → F → F
  gt : F → F → Bool
  /-- `as f32`. -/
  ofU32 : UInt32 → F
  /-- `as i32`. -/
  toI32 : F → ℤ
  /-- `as usize`. -/
  toUsize : F → ℕ
  toI32_ofU32 : ∀ n, toI32 (ofU32 n) = min ⌊Rounding.f32 n.toNat⌋ (2 ^ 31 - 1)

namespace Tflite

/-- How `detect` ends other than with detections. -/
inductive Failure where
  | error (e : Error)
  | panic

/-- `unwrap`, and the index of a slice. -/
def unwrap {α : Type} : Option α → Except Failure α
  | some a => .ok a
  | none => .error .panic

/-- The contents of the output tensors. -/
structure Outputs (F : Type) where
  locations : List F
  classes : List F
  scores : List F
  rawNumDetections : List F

structure Interpreter (F : Type) where
  inputs : List ℕ
  outputs : List ℕ
  /-- The length of `tensor_data_mut`. -/
  inputLen : ℕ → Except Error ℕ
  /-- `invoke`, with what is in the input tensor. -/
  invoke : List UInt8 → Except Error Unit
  /-- `tensor_data` after that. -/
  tensorData : List UInt8 → ℕ → Except Error (List F)

end Tflite

open Tflite (Failure Interpreter Outputs unwrap)

/-- `TFLiteStage`, with what `new` asserts. -/
structure TFLiteStage (F : Type) where
  interpreter : Interpreter F
  labels : LabelParser
  threshold : F
  width : UInt32
  height : UInt32
  one_input : interpreter.inputs.length = 1
  four_outputs : interpreter.outputs.length = 4

namespace TFLiteStage
variable {F : Type}

/-- `detect` up to the loop. -/
def readOutputs (stage : TFLiteStage F) (rgbBytes : List UInt8) : Except Failure (Outputs F) := do
  let inputIndex ← unwrap stage.interpreter.inputs[0]?
  let inputLen ← (stage.interpreter.inputLen inputIndex).mapError .error
  if rgbBytes.length < inputLen then
    .error (.error (.internalError "lowres frame smaller than model input"))
  else
    let input := rgbBytes.take inputLen
    (stage.interpreter.invoke input).mapError .error
    let tensor (i : ℕ) : Except Failure (List F) := do
      let index ← unwrap stage.interpreter.outputs[i]?
      (stage.interpreter.tensorData input index).mapError .error
    let locations ← tensor 0
    let classes ← tensor 1
    let scores ← tensor 2
    let rawNumDetections ← tensor 3
    return { locations, classes, scores, rawNumDetections }

/-- The name of a class. -/
def className (stage : TFLiteStage F) (classNum : ℤ) : Except Failure String :=
  if stage.labels.has classNum then unwrap (stage.labels.lookup classNum) else .ok "?"

/-- The body of the loop: the detection that is pushed, if one is. -/
def detectAt (R : F32 F) (stage : TFLiteStage F) (outputs : Outputs F) (index : ℕ) :
    Except Failure (Option (Detection F)) := do
  let width := R.ofU32 stage.width
  let height := R.ofU32 stage.height
  let ymin := max 0 (R.toI32 (R.mul height (← unwrap outputs.locations[4 * index]?)))
  let xmin := max 0 (R.toI32 (R.mul width (← unwrap outputs.locations[4 * index + 1]?)))
  let ymax := min (R.toI32 height - 1)
    (R.toI32 (R.mul height (← unwrap outputs.locations[4 * index + 2]?)))
  let xmax := min (R.toI32 width - 1)
    (R.toI32 (R.mul width (← unwrap outputs.locations[4 * index + 3]?)))
  let classNum := R.toI32 (← unwrap outputs.classes[index]?)
  let className ← stage.className classNum
  let score ← unwrap outputs.scores[index]?
  return if R.gt score stage.threshold then some { xmin, ymin, xmax, ymax, score, className }
    else none

/-- How often the loop runs. -/
def numDetections (R : F32 F) (outputs : Outputs F) : Except Failure ℕ := do
  let raw ← unwrap outputs.rawNumDetections[0]?
  return min (min (min (R.toUsize raw) outputs.classes.length) outputs.scores.length)
    (outputs.locations.length / 4)

/-- `detect`. -/
def detect (R : F32 F) (stage : TFLiteStage F) (rgbBytes : List UInt8) :
    Except Failure (List (Detection F)) := do
  let outputs ← stage.readOutputs rgbBytes
  let numDetections ← numDetections R outputs
  (List.range numDetections).foldlM
    (fun detections index => do
      let detection ← stage.detectAt R outputs index
      return detections ++ detection.toList) []

/-! ## No index out of range -/

variable {R : F32 F} {stage : TFLiteStage F} {outputs : Outputs F} {index n : ℕ}
  {rgbBytes : List UInt8} {det : Detection F}

theorem unwrap_getElem? {α : Type} {xs : List α} {i : ℕ} (h : i < xs.length) :
    unwrap xs[i]? = .ok xs[i] := by
  rw [List.getElem?_eq_getElem h]
  rfl

theorem className_ok (stage : TFLiteStage F) (classNum : ℤ) :
    ∃ name, stage.className classNum = .ok name := by
  unfold className
  split
  next h =>
    obtain ⟨name, hname⟩ := Option.isSome_iff_exists.mp h
    exact ⟨name, congrArg unwrap hname⟩
  next => exact ⟨"?", rfl⟩

theorem bind_ne_panic {α β : Type} {x : Except Failure α} {f : α → Except Failure β}
    (hx : x ≠ .error .panic) (hf : ∀ a, f a ≠ .error .panic) : x >>= f ≠ .error .panic := by
  cases x with
  | error e => exact fun h => hx (congrArg Except.error (Except.error.inj h))
  | ok a => exact hf a

theorem mapError_ne_panic {α : Type} (x : Except Error α) :
    x.mapError Failure.error ≠ .error .panic := by
  cases x <;> simp [Except.mapError]

/-- Before the loop nothing is out of range either. -/
theorem readOutputs_ne_panic (stage : TFLiteStage F) (rgbBytes : List UInt8) :
    stage.readOutputs rgbBytes ≠ .error .panic := by
  have hindex : ∀ (xs : List ℕ) (i : ℕ), i < xs.length → unwrap xs[i]? ≠ .error .panic := by
    intro xs i hi
    rw [unwrap_getElem? hi]
    simp
  have htensor : ∀ input, ∀ i < 4,
      (unwrap stage.interpreter.outputs[i]? >>= fun index =>
        (stage.interpreter.tensorData input index).mapError Failure.error) ≠ .error .panic :=
    fun input i hi => bind_ne_panic (hindex _ i (by rw [stage.four_outputs]; exact hi))
      fun index => mapError_ne_panic _
  unfold readOutputs
  refine bind_ne_panic (hindex _ 0 (by rw [stage.one_input]; decide)) fun inputIndex => ?_
  refine bind_ne_panic (mapError_ne_panic _) fun inputLen => ?_
  split
  · simp
  · refine bind_ne_panic (mapError_ne_panic _) fun _ => ?_
    refine bind_ne_panic (htensor _ 0 (by decide)) fun locations => ?_
    refine bind_ne_panic (htensor _ 1 (by decide)) fun classes => ?_
    refine bind_ne_panic (htensor _ 2 (by decide)) fun scores => ?_
    refine bind_ne_panic (htensor _ 3 (by decide)) fun rawNumDetections => ?_
    simp [pure, Except.pure]

/-- The detection that is made of four coordinates. -/
def box (R : F32 F) (stage : TFLiteStage F) (ymin xmin ymax xmax score : F) (className : String) :
    Detection F where
  ymin := max 0 (R.toI32 (R.mul (R.ofU32 stage.height) ymin))
  xmin := max 0 (R.toI32 (R.mul (R.ofU32 stage.width) xmin))
  ymax := min (R.toI32 (R.ofU32 stage.height) - 1) (R.toI32 (R.mul (R.ofU32 stage.height) ymax))
  xmax := min (R.toI32 (R.ofU32 stage.width) - 1) (R.toI32 (R.mul (R.ofU32 stage.width) xmax))
  score := score
  className := className

/-- The index is one of those that the loop goes through. -/
structure InRange (outputs : Outputs F) (index : ℕ) : Prop where
  locations : 4 * index + 3 < outputs.locations.length
  classes : index < outputs.classes.length
  scores : index < outputs.scores.length

theorem detectAt_eq (R : F32 F) (stage : TFLiteStage F) (h : InRange outputs index) :
    ∃ ymin xmin ymax xmax score className, outputs.locations[4 * index]? = some ymin ∧
      outputs.locations[4 * index + 1]? = some xmin ∧
      outputs.locations[4 * index + 2]? = some ymax ∧
      outputs.locations[4 * index + 3]? = some xmax ∧ outputs.scores[index]? = some score ∧
      stage.detectAt R outputs index =
        .ok (if R.gt score stage.threshold then
          some (box R stage ymin xmin ymax xmax score className) else none) := by
  have hlength := h.locations
  have hclasses := h.classes
  have h₀ : 4 * index < outputs.locations.length := by omega
  have h₁ : 4 * index + 1 < outputs.locations.length := by omega
  have h₂ : 4 * index + 2 < outputs.locations.length := by omega
  obtain ⟨name, hname⟩ := className_ok stage (R.toI32 outputs.classes[index])
  refine ⟨_, _, _, _, _, name, List.getElem?_eq_getElem h₀, List.getElem?_eq_getElem h₁,
    List.getElem?_eq_getElem h₂, List.getElem?_eq_getElem h.locations,
    List.getElem?_eq_getElem h.scores, ?_⟩
  simp only [detectAt, unwrap_getElem? h₀, unwrap_getElem? h₁, unwrap_getElem? h₂,
    unwrap_getElem? h.locations, unwrap_getElem? h.classes, unwrap_getElem? h.scores, bind,
    Except.bind, hname]
  rfl

theorem detectAt_of_values (R : F32 F) (stage : TFLiteStage F) (h : InRange outputs index)
    {ymin xmin ymax xmax score : F}
    (hymin : outputs.locations[4 * index]? = some ymin)
    (hxmin : outputs.locations[4 * index + 1]? = some xmin)
    (hymax : outputs.locations[4 * index + 2]? = some ymax)
    (hxmax : outputs.locations[4 * index + 3]? = some xmax)
    (hscore : outputs.scores[index]? = some score) :
    ∃ className, stage.detectAt R outputs index =
      .ok (if R.gt score stage.threshold then
        some (box R stage ymin xmin ymax xmax score className) else none) := by
  obtain ⟨ymin', xmin', ymax', xmax', score', name, hymin', hxmin', hymax', hxmax', hscore', heq⟩ :=
    detectAt_eq R stage h
  obtain rfl := Option.some.inj (hymin.symm.trans hymin')
  obtain rfl := Option.some.inj (hxmin.symm.trans hxmin')
  obtain rfl := Option.some.inj (hymax.symm.trans hymax')
  obtain rfl := Option.some.inj (hxmax.symm.trans hxmax')
  obtain rfl := Option.some.inj (hscore.symm.trans hscore')
  exact ⟨name, heq⟩

/-! ## Boxes in the frame -/

/-- The box lies in the frame. -/
structure InFrame (stage : TFLiteStage F) (det : Detection F) : Prop where
  xmin_nonneg : 0 ≤ det.xmin
  xmin_le_xmax : det.xmin ≤ det.xmax
  xmax_lt : det.xmax ≤ stage.width.toNat - 1
  ymin_nonneg : 0 ≤ det.ymin
  ymin_le_ymax : det.ymin ≤ det.ymax
  ymax_lt : det.ymax ≤ stage.height.toNat - 1

/-- One pair of sides, scaled, needs no more than the half that is put right: the upper
one is not negative, the lower one not past it nor past the end of the frame. For a size
that is rounded up, the upper one is not past the end itself. -/
structure Fits (R : F32 F) (size : UInt32) (lower upper : F) : Prop where
  nonneg : 0 ≤ R.toI32 (R.mul (R.ofU32 size) upper)
  le : R.toI32 (R.mul (R.ofU32 size) lower) ≤ R.toI32 (R.mul (R.ofU32 size) upper)
  lt : R.toI32 (R.mul (R.ofU32 size) lower) < R.toI32 (R.ofU32 size)
  rounded : R.toI32 (R.ofU32 size) ≤ size.toNat ∨
    R.toI32 (R.mul (R.ofU32 size) upper) < size.toNat

/-- A frame that is not empty is not empty after rounding. -/
theorem one_le_toI32_ofU32 (R : F32 F) {size : UInt32} (h : 1 ≤ size.toNat) :
    1 ≤ R.toI32 (R.ofU32 size) := by
  have hone : (1 : ℚ) ≤ Rounding.f32 size.toNat := by
    have hmono := Rounding.f32_mono zero_le_one (show (1 : ℚ) ≤ size.toNat by exact_mod_cast h)
    rwa [Rounding.f32_one] at hmono
  rw [R.toI32_ofU32]
  exact le_min (Int.le_floor.mpr (by simpa using hone)) (by decide)

theorem fits_iff {size : UInt32} {lower upper : F} (h : 1 ≤ size.toNat) :
    Fits R size lower upper ↔
      max 0 (R.toI32 (R.mul (R.ofU32 size) lower)) ≤
          min (R.toI32 (R.ofU32 size) - 1) (R.toI32 (R.mul (R.ofU32 size) upper)) ∧
        min (R.toI32 (R.ofU32 size) - 1) (R.toI32 (R.mul (R.ofU32 size) upper)) ≤
          size.toNat - 1 := by
  have hsize := one_le_toI32_ofU32 R h
  constructor
  · rintro ⟨hnonneg, hle, hlt, hrounded⟩
    omega
  · rintro ⟨hle, hupper⟩
    constructor <;> omega

theorem inFrame_box_iff {ymin xmin ymax xmax score : F} {className : String}
    (hwidth : 1 ≤ stage.width.toNat) (hheight : 1 ≤ stage.height.toNat) :
    InFrame stage (box R stage ymin xmin ymax xmax score className) ↔
      Fits R stage.width xmin xmax ∧ Fits R stage.height ymin ymax := by
  rw [fits_iff hwidth, fits_iff hheight]
  constructor
  · rintro ⟨-, hx, hxmax, -, hy, hymax⟩
    exact ⟨⟨hx, hxmax⟩, hy, hymax⟩
  · rintro ⟨⟨hx, hxmax⟩, hy, hymax⟩
    exact ⟨le_max_left _ _, hx, hxmax, le_max_left _ _, hy, hymax⟩

/-- The indices that the loop goes through. -/
theorem numDetections_eq {raw : F} {rest : List F} (h : outputs.rawNumDetections = raw :: rest) :
    ∃ n, numDetections R outputs = .ok n ∧
      (∀ index, index < n ↔ index < R.toUsize raw ∧ InRange outputs index) := by
  have heq : numDetections R outputs = .ok (min (min (min (R.toUsize raw) outputs.classes.length)
      outputs.scores.length) (outputs.locations.length / 4)) := by
    simp only [numDetections, h, List.getElem?_cons_zero, unwrap, bind, Except.bind]
    rfl
  refine ⟨_, heq, fun index => ?_⟩
  constructor
  · intro hindex
    have hlocations : index < outputs.locations.length / 4 := by omega
    exact ⟨by omega, by omega, by omega, by omega⟩
  · rintro ⟨hraw, hlocations, hclasses, hscores⟩
    omega

/-- Once the tensors are read, `detect` returns what the passes of the loop push. -/
theorem exists_detect {raw : F} {rest : List F} (hread : stage.readOutputs rgbBytes = .ok outputs)
    (hcount : outputs.rawNumDetections = raw :: rest) :
    ∃ dets, stage.detect R rgbBytes = .ok dets ∧
      ∀ det, det ∈ dets ↔ ∃ index, index < R.toUsize raw ∧ InRange outputs index ∧
        stage.detectAt R outputs index = .ok (some det) := by
  obtain ⟨n, hn, hindices⟩ := numDetections_eq (R := R) hcount
  have hpasses : ∀ index < n, ∃ o, stage.detectAt R outputs index = .ok o := by
    intro index hindex
    obtain ⟨ymin, xmin, ymax, xmax, score, name, -, -, -, -, -, heq⟩ :=
      detectAt_eq R stage ((hindices index).mp hindex).2
    exact ⟨_, heq⟩
  obtain ⟨dets, hdets, hmem⟩ := Except.foldlM_collect hpasses
  refine ⟨dets, ?_, fun det => ?_⟩
  · simp only [detect, hread, hn, bind, Except.bind]
    exact hdets
  · simp only [hmem, hindices, and_assoc]

/-- `detect` does not panic if the model counts its detections. -/
theorem detect_ne_panic (h : ∀ outputs, stage.readOutputs rgbBytes = .ok outputs →
    outputs.rawNumDetections ≠ []) : stage.detect R rgbBytes ≠ .error .panic := by
  cases hread : stage.readOutputs rgbBytes with
  | error e =>
      have hpanic := readOutputs_ne_panic stage rgbBytes
      simp only [detect, hread, bind, Except.bind] at hpanic ⊢
      exact fun heq => hpanic (congrArg Except.error (Except.error.inj heq))
  | ok outputs =>
      obtain ⟨raw, rest, hcount⟩ := List.exists_cons_of_ne_nil (h outputs hread)
      obtain ⟨dets, hdets, -⟩ := exists_detect (R := R) hread hcount
      rw [hdets]
      simp

/-- `detect` returns detections once the tensors are read, and all boxes lie in the frame
if and only if those above the threshold fit it on both axes. -/
theorem in_frame_iff {raw : F} {rest : List F} (hread : stage.readOutputs rgbBytes = .ok outputs)
    (hcount : outputs.rawNumDetections = raw :: rest) (hwidth : 1 ≤ stage.width.toNat)
    (hheight : 1 ≤ stage.height.toNat) :
    ∃ dets, stage.detect R rgbBytes = .ok dets ∧
      ((∀ det ∈ dets, InFrame stage det) ↔
        ∀ index ymin xmin ymax xmax score, index < R.toUsize raw → InRange outputs index →
          outputs.locations[4 * index]? = some ymin →
          outputs.locations[4 * index + 1]? = some xmin →
          outputs.locations[4 * index + 2]? = some ymax →
          outputs.locations[4 * index + 3]? = some xmax →
          outputs.scores[index]? = some score → R.gt score stage.threshold →
          Fits R stage.width xmin xmax ∧ Fits R stage.height ymin ymax) := by
  obtain ⟨dets, hdets, hmem⟩ := exists_detect (R := R) hread hcount
  refine ⟨dets, hdets, ?_⟩
  constructor
  · intro h index ymin xmin ymax xmax score hraw hrange hymin hxmin hymax hxmax hscore hgt
    obtain ⟨name, heq⟩ := detectAt_of_values R stage hrange hymin hxmin hymax
      hxmax hscore
    rw [if_pos hgt] at heq
    have hin := h _ ((hmem _).mpr ⟨index, hraw, hrange, heq⟩)
    exact (inFrame_box_iff hwidth hheight).mp hin
  · intro h det hdet
    obtain ⟨index, hraw, hrange, hat⟩ := (hmem det).mp hdet
    obtain ⟨ymin, xmin, ymax, xmax, score, name, hymin, hxmin, hymax, hxmax, hscore, heq⟩ :=
      detectAt_eq R stage hrange
    rw [hat] at heq
    split at heq
    next hgt =>
      obtain rfl := Option.some.inj (Except.ok.inj heq)
      exact (inFrame_box_iff hwidth hheight).mpr
        (h index ymin xmin ymax xmax score hraw hrange hymin hxmin hymax hxmax hscore hgt)
    next => cases heq

/-! ### A small model -/

/-- The finite numbers. -/
def rationals : F32 ℚ where
  mul x y := Rounding.f32 (x * y)
  gt x y := y < x
  ofU32 n := Rounding.f32 n.toNat
  toI32 x := max (-2 ^ 31) (min (if 0 ≤ x then ⌊x⌋ else ⌈x⌉) (2 ^ 31 - 1))
  toUsize x := ⌊x⌋.toNat
  toI32_ofU32 n := by
    have hnonneg : 0 ≤ Rounding.f32 n.toNat := Rounding.f32_nonneg (Nat.cast_nonneg _)
    have hfloor : 0 ≤ ⌊Rounding.f32 n.toNat⌋ := Int.floor_nonneg.mpr hnonneg
    rw [if_pos hnonneg]
    exact max_eq_right (le_min (by omega) (by decide))

/-- A model with one detection in a frame of 4 by 4, at `locations`. -/
def single (locations : List ℚ) : TFLiteStage ℚ where
  interpreter :=
    { inputs := [0]
      outputs := [0, 1, 2, 3]
      inputLen _ := .ok 0
      invoke _ := .ok ()
      tensorData _ i := .ok ([locations, [0], [1], [1]].getD i []) }
  labels := { labels := ∅ }
  threshold := 1 / 2
  width := 4
  height := 4
  one_input := rfl
  four_outputs := rfl

def singleOutputs (locations : List ℚ) : Outputs ℚ where
  locations
  classes := [0]
  scores := [1]
  rawNumDetections := [1]

theorem readOutputs_single (locations : List ℚ) :
    (single locations).readOutputs [] = .ok (singleOutputs locations) := rfl

theorem in_frame_iff_middle :
    ∃ dets, (single [1 / 4, 1 / 4, 1 / 2, 1 / 2]).detect rationals [] = .ok dets ∧
      ∀ det ∈ dets, InFrame (single [1 / 4, 1 / 4, 1 / 2, 1 / 2]) det := by
  obtain ⟨dets, hdets, hiff⟩ := in_frame_iff (R := rationals)
    (readOutputs_single [1 / 4, 1 / 4, 1 / 2, 1 / 2]) rfl (by decide) (by decide)
  refine ⟨dets, hdets, hiff.mpr ?_⟩
  intro index ymin xmin ymax xmax score _ hrange hymin hxmin hymax hxmax _ _
  have hindex : index = 0 := by
    have hclasses : index < 1 := hrange.classes
    omega
  subst hindex
  obtain rfl := Option.some.inj hymin
  obtain rfl := Option.some.inj hxmin
  obtain rfl := Option.some.inj hymax
  obtain rfl := Option.some.inj hxmax
  have hfits : Fits rationals 4 (1 / 4) (1 / 2) :=
    ⟨by decide +kernel, by decide +kernel, by decide +kernel, by decide +kernel⟩
  exact ⟨hfits, hfits⟩

/-- A box to the right of the frame: its left side stays where it is. -/
theorem not_in_frame_right :
    ∃ dets, (single [0, 3 / 2, 1 / 2, 2]).detect rationals [] = .ok dets ∧
      ∃ det ∈ dets, det.xmin = 6 ∧ det.xmax = 3 ∧ ¬ InFrame (single [0, 3 / 2, 1 / 2, 2]) det := by
  have hrange : InRange (singleOutputs [0, 3 / 2, 1 / 2, 2]) 0 :=
    ⟨by decide, by decide, by decide⟩
  obtain ⟨dets, hdets, hmem⟩ := exists_detect (R := rationals)
    (readOutputs_single [0, 3 / 2, 1 / 2, 2]) rfl
  obtain ⟨name, hat⟩ := detectAt_of_values rationals (single [0, 3 / 2, 1 / 2, 2]) hrange
    rfl rfl rfl rfl rfl
  rw [if_pos (by decide +kernel)] at hat
  have hxmin : max 0 (rationals.toI32 (rationals.mul (rationals.ofU32 4) (3 / 2))) = 6 := by
    decide +kernel
  have hxmax : min (rationals.toI32 (rationals.ofU32 4) - 1)
      (rationals.toI32 (rationals.mul (rationals.ofU32 4) 2)) = 3 := by decide +kernel
  refine ⟨dets, hdets, _, (hmem _).mpr ⟨0, by decide +kernel, hrange, hat⟩, hxmin, hxmax, ?_⟩
  intro h
  have hle : (6 : ℤ) ≤ 3 := calc
    6 = _ := hxmin.symm
    _ ≤ _ := h.xmin_le_xmax
    _ = 3 := hxmax
  omega

end TFLiteStage
