-- SUMMARY: Detections, and `summarize_detections`: how many there are of each group of classes.
import Mathlib.Data.List.AList
import Mathlib.Data.UInt

/-!
# Detections

A `HashMap` is an association list without duplicate keys. Whoever goes through its
entries meets them in an order of the map's own choosing.
-/

/-- `pipeline::Detection`. `F` is `f32`. -/
structure Detection (F : Type) where
  xmin : ℤ
  ymin : ℤ
  xmax : ℤ
  ymax : ℤ
  score : F
  className : String

/-- Class and instance count. -/
abbrev DetectionSummary := AList fun _ : String => UInt32

namespace Summarize
variable {F : Type}

def vehicleClasses : List String := ["car", "motorcycle", "bus", "truck"]
def animalClasses : List String := ["dog", "cat", "horse"]

/-- The key that a detection counts for. -/
def keyOf (det : Detection F) : Option String :=
  if det.className = "person" then some "person"
  else if det.className ∈ vehicleClasses then some "vehicle"
  else if det.className ∈ animalClasses then some "animal"
  else none

/-- `*dets_out.get_mut(key).unwrap() += 1`, which wraps. -/
def addOne (out : DetectionSummary) (key : String) : DetectionSummary :=
  match out.lookup key with
  | some count => out.insert key (count + 1)
  | none => out

/-- The body of the loop. -/
def count (out : DetectionSummary) (det : Detection F) : DetectionSummary :=
  match keyOf det with
  | some key => addOne out key
  | none => out

def zeros : DetectionSummary :=
  (((∅ : DetectionSummary).insert "person" 0).insert "animal" 0).insert "vehicle" 0

/-- `summarize_detections`. -/
def summarizeDetections (dets : List (Detection F)) : DetectionSummary := dets.foldl count zeros

/-! ## What is counted -/

def groups : List String := ["person", "animal", "vehicle"]

theorem keyOf_mem_groups {det : Detection F} {key : String} (h : keyOf det = some key) :
    key ∈ groups := by
  unfold keyOf at h
  split_ifs at h <;> cases h <;> decide

theorem keyOf_person {det : Detection F} :
    keyOf det = some "person" ↔ det.className = "person" := by
  unfold keyOf
  split_ifs <;> simp_all

/-- The groups have no class in common, so the order of the tests does not matter. -/
theorem keyOf_vehicle {det : Detection F} :
    keyOf det = some "vehicle" ↔ det.className ∈ vehicleClasses := by
  unfold keyOf
  split_ifs with hperson hvehicle
  · simp [hperson, vehicleClasses]
  all_goals simp [hvehicle]

theorem keyOf_animal {det : Detection F} :
    keyOf det = some "animal" ↔ det.className ∈ animalClasses := by
  unfold keyOf
  split_ifs with hperson hvehicle hanimal
  · simp [hperson, animalClasses]
  · have hnot : ∀ c ∈ vehicleClasses, c ∉ animalClasses := by decide
    simp [hnot _ hvehicle]
  all_goals simp [hanimal]

/-- The detections that count for `key`. -/
def members (key : String) (dets : List (Detection F)) : ℕ :=
  dets.countP fun det => keyOf det = some key

theorem lookup_addOne {out : DetectionSummary} {key : String} {n : UInt32}
    (h : out.lookup key = some n) (key' : String) :
    (addOne out key).lookup key' = if key' = key then some (n + 1) else out.lookup key' := by
  simp only [addOne, h]
  by_cases hkey : key' = key
  · rw [if_pos hkey, hkey, AList.lookup_insert]
  · rw [if_neg hkey, AList.lookup_insert_ne hkey]

theorem lookup_zeros (key : String) :
    zeros.lookup key = if key ∈ groups then some 0 else none := by
  by_cases h : key ∈ groups
  · rw [if_pos h]
    simp only [groups, List.mem_cons, List.not_mem_nil, or_false] at h
    rcases h with rfl | rfl | rfl <;> rfl
  · rw [if_neg h]
    simp only [groups, List.mem_cons, List.not_mem_nil, or_false, not_or] at h
    obtain ⟨hperson, hanimal, hvehicle⟩ := h
    rw [zeros, AList.lookup_insert_ne hvehicle, AList.lookup_insert_ne hanimal,
      AList.lookup_insert_ne hperson]
    rfl

theorem members_concat (key : String) (dets : List (Detection F)) (det : Detection F) :
    members key (dets ++ [det]) = members key dets + if keyOf det = some key then 1 else 0 := by
  simp [members, List.countP_append, List.countP_singleton]

/-- The summary has the three groups and no others, each with its detections modulo
2^32. -/
theorem lookup_summarizeDetections (dets : List (Detection F)) (key : String) :
    (summarizeDetections dets).lookup key =
      if key ∈ groups then some (UInt32.ofNat (members key dets)) else none := by
  induction dets using List.reverseRecOn generalizing key with
  | nil => exact lookup_zeros key
  | append_singleton dets det ih =>
      have hstep : summarizeDetections (dets ++ [det]) = count (summarizeDetections dets) det :=
        List.foldl_concat ..
      rw [hstep, members_concat, count]
      cases hkey : keyOf det with
      | none => simpa using ih key
      | some key' =>
          have hfound := ih key'
          rw [if_pos (keyOf_mem_groups hkey)] at hfound
          rw [lookup_addOne hfound, ih key]
          by_cases heq : key = key'
          · subst heq
            simp [keyOf_mem_groups hkey]
          · simp [heq, Ne.symm heq]

/-- No detection counts for two groups. -/
theorem members_le (dets : List (Detection F)) :
    members "person" dets + members "vehicle" dets + members "animal" dets ≤ dets.length := by
  induction dets with
  | nil => simp [members]
  | cons det dets ih =>
      simp only [members, List.countP_cons, List.length_cons] at ih ⊢
      cases hkey : keyOf det with
      | none => simp; omega
      | some key =>
          have hmem := keyOf_mem_groups hkey
          simp only [groups, List.mem_cons, List.not_mem_nil, or_false] at hmem
          rcases hmem with rfl | rfl | rfl <;> simp <;> omega

end Summarize
