-- SUMMARY: `RateReporter`: the frames of a window of one second, with the `f32` arithmetic that says when the window is over.
import AtomRust.Base.Rounding

/-!
# The rate reporter

An `Instant` is a number of nanoseconds. Each call that looks at the clock has its
reading as an argument. The `f32` values are exact: none of them is near the limits of
the exponent.
-/

open Rounding

structure RateReporter where
  reportingSecs : ℚ
  timeOfLastReport : ℕ
  count : UInt32

/-- What `rate` divides. -/
structure Rate where
  count : UInt32
  duration : ℚ

/-- The `f32` that is sent. -/
def Rate.value (r : Rate) : ℚ := f32 (f32 r.count.toNat / r.duration)

namespace RateReporter

def new (reportingSecs : ℚ) (now : ℕ) : RateReporter where
  reportingSecs := reportingSecs
  timeOfLastReport := now
  count := 0

/-- `dur.as_secs() as f32 + dur.subsec_nanos() as f32 / 1_000_000_000.0`. -/
def secs (nanos : ℕ) : ℚ :=
  f32 (f32 (nanos / 1000000000 : ℕ) + f32 (f32 (nanos % 1000000000 : ℕ) / f32 1000000000))

def duration (r : RateReporter) (now : ℕ) : ℚ := secs (now - r.timeOfLastReport)

def isTimeToReport (r : RateReporter) (now : ℕ) : Bool := r.reportingSecs ≤ r.duration now

def rate (r : RateReporter) (now : ℕ) : Rate := { count := r.count, duration := r.duration now }

/-- `reset` is the reading for the next window. -/
def tick (r : RateReporter) (now reset : ℕ) : RateReporter :=
  let r := { r with count := r.count + 1 }
  if r.isTimeToReport now then { r with count := 0, timeOfLastReport := reset } else r

/-! ## The end of a window -/

/-- A full second is never taken for less. -/
theorem one_le_secs {nanos : ℕ} (h : 1000000000 ≤ nanos) : 1 ≤ secs nanos := by
  have hwhole : (1 : ℚ) ≤ (nanos / 1000000000 : ℕ) := by
    exact_mod_cast Nat.div_pos h (by decide)
  have hpart : 0 ≤ f32 (f32 (nanos % 1000000000 : ℕ) / f32 1000000000) :=
    f32_nonneg (div_nonneg (f32_nonneg (Nat.cast_nonneg _)) (f32_nonneg (by decide)))
  calc (1 : ℚ) = f32 1 := f32_one.symm
    _ ≤ f32 (f32 (nanos / 1000000000 : ℕ) + f32 (f32 (nanos % 1000000000 : ℕ) / f32 1000000000)) := by
        apply f32_mono zero_le_one
        calc (1 : ℚ) = f32 1 := f32_one.symm
          _ ≤ f32 (nanos / 1000000000 : ℕ) := f32_mono zero_le_one hwhole
          _ ≤ _ := le_add_of_nonneg_right hpart

/-- Within the first second `secs` grows. -/
theorem secs_mono {a b : ℕ} (h : a ≤ b) (hb : b < 1000000000) : secs a ≤ secs b := by
  have hdiv : ∀ {n : ℕ}, n ≤ b → n / 1000000000 = 0 ∧ n % 1000000000 = n := by
    intro n hn
    omega
  rw [secs, secs, (hdiv h).1, (hdiv h).2, (hdiv le_rfl).1, (hdiv le_rfl).2]
  have hpart : f32 (f32 a / f32 1000000000) ≤ f32 (f32 b / f32 1000000000) := by
    apply f32_mono (div_nonneg (f32_nonneg (Nat.cast_nonneg _)) (f32_nonneg (by decide)))
    exact div_le_div_of_nonneg_right (f32_mono (Nat.cast_nonneg _) (by exact_mod_cast h))
      (f32_nonneg (by decide))
  apply f32_mono
  · exact add_nonneg (f32_nonneg (Nat.cast_nonneg _))
      (f32_nonneg (div_nonneg (f32_nonneg (Nat.cast_nonneg _)) (f32_nonneg (by decide))))
  · exact add_le_add_right hpart _

/-- The last 32 nanoseconds of a second round up to the whole of it. -/
theorem one_le_secs_iff (nanos : ℕ) : 1 ≤ secs nanos ↔ 999999968 ≤ nanos := by
  have hlast : secs 999999967 < 1 := by decide +kernel
  have hfirst : 1 ≤ secs 999999968 := by decide +kernel
  constructor
  · intro h
    by_contra hlt
    have hle : secs nanos ≤ secs 999999967 := secs_mono (by omega) (by decide)
    exact absurd (h.trans hle) (not_le_of_gt hlast)
  · intro h
    by_cases hfull : 1000000000 ≤ nanos
    · exact one_le_secs hfull
    · exact hfirst.trans (secs_mono h (by omega))

/-- A window of one second. -/
def windowNanos : ℕ := 999999968

theorem isTimeToReport_iff {r : RateReporter} (h : r.reportingSecs = 1) (now : ℕ) :
    r.isTimeToReport now ↔ r.timeOfLastReport + windowNanos ≤ now := by
  have hsecs := one_le_secs_iff (now - r.timeOfLastReport)
  rw [isTimeToReport, h, decide_eq_true_iff, duration, hsecs, windowNanos]
  omega

end RateReporter
