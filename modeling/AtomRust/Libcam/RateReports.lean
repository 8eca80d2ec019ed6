-- SUMMARY: Which frames the sent rates account for: they are all counted just as long as no window comes to its end.
import AtomRust.Base.Transition
import AtomRust.Libcam.LibCam

/-!
# Rate reports

A callback reports before it counts its own frame, and `tick`, which counts it, starts
the next window if this one is over by then. So the frame that ends a window is in no
report, and if the window is over only by the reading of `tick` no frame of it is.

The two reporters have nothing to do with each other: each has its own callback, its own
channel, and readings of the clock that do not go back.
-/

namespace RateReporter

/-- The readings of a callback follow each other, and those before. -/
def Ordered (now : ℕ) (c : Readings) : Prop :=
  now ≤ c.timeToReport ∧ c.timeToReport ≤ c.rate ∧ c.rate ≤ c.tick ∧ c.tick ≤ c.reset

instance (now : ℕ) (c : Readings) : Decidable (Ordered now c) :=
  inferInstanceAs (Decidable (_ ∧ _))

/-- The frames in the rates that were sent. -/
def reported (rates : List Rate) : ℕ := (rates.map (·.count.toNat)).sum

/-- The window is not over when `tick` looks at the clock, and the counter does not
wrap. -/
def Open (r : RateReporter) (c : Readings) : Prop :=
  r.isTimeToReport c.tick = false ∧ r.count.toNat + 1 < 2 ^ 32

theorem reported_append (rates rates' : List Rate) :
    reported (rates ++ rates') = reported rates + reported rates' := by
  simp [reported]

/-- The window that the first reading finds over is still over for `tick`. -/
theorem isTimeToReport_mono {r : RateReporter} (hsecs : r.reportingSecs = 1) {now now' : ℕ}
    (h : now ≤ now') (hdue : r.isTimeToReport now) : r.isTimeToReport now' := by
  rw [isTimeToReport_iff hsecs] at hdue ⊢
  omega

theorem frame_reportingSecs (r : RateReporter) (c : Readings) :
    (r.frame c).1.reportingSecs = r.reportingSecs := by
  simp only [frame, tick]
  split <;> rfl

/-- A callback's frame is accounted for, with all those before it, just in an open
window. -/
theorem frame_accounts_iff {r : RateReporter} (hsecs : r.reportingSecs = 1) {now : ℕ}
    {c : Readings} (hc : Ordered now c) :
    reported (r.frame c).2 + (r.frame c).1.count.toNat = r.count.toNat + 1 ↔ r.Open c := by
  obtain ⟨-, hrate, htick, -⟩ := hc
  have hcount := r.count.toNat_lt
  have hdue : ∀ {n : UInt32}, ({ r with count := n } : RateReporter).isTimeToReport c.tick =
      r.isTimeToReport c.tick := rfl
  cases hclosed : r.isTimeToReport c.tick with
  | true =>
      -- Whatever is reported is what was there before.
      have hle : reported (r.frame c).2 ≤ r.count.toNat := by
        simp only [frame]
        split <;> simp [reported, rate]
      have hzero : (r.frame c).1.count = 0 := by
        simp [frame, tick, hdue, hclosed]
      rw [hzero, Open, hclosed]
      simp
      omega
  | false =>
      have hnone : (r.frame c).2 = [] := by
        have hnot : ¬ r.isTimeToReport c.timeToReport := fun h => by
          have := isTimeToReport_mono hsecs (hrate.trans htick) h
          simp [hclosed] at this
        simp [frame, hnot]
      have hnext : (r.frame c).1.count = r.count + 1 := by
        simp [frame, tick, hdue, hclosed]
      rw [hnone, hnext, Open, hclosed, UInt32.toNat_add]
      simp [reported]

/-- The same, with the rates that were sent before. -/
theorem accounts_frame_iff {r : RateReporter} (hsecs : r.reportingSecs = 1) {now : ℕ}
    {c : Readings} (hc : Ordered now c) {rates : List Rate} {calls : ℕ}
    (h : reported rates + r.count.toNat = calls) :
    reported (rates ++ (r.frame c).2) + (r.frame c).1.count.toNat = calls + 1 ↔ r.Open c := by
  rw [← frame_accounts_iff hsecs hc, reported_append]
  omega

end RateReporter

open RateReporter (Ordered reported)

namespace LibCamCallback
variable {S F : Type}

/-- The reporters and the rates are the same. -/
structure SameRates (c c' : LibCamCallback S F) : Prop where
  h264 : c'.h264.reporter = c.h264.reporter
  lowres : c'.lowres.reporter = c.lowres.reporter
  h264RateTx : c'.h264RateTx = c.h264RateTx
  lowresRateTx : c'.lowresRateTx = c.lowresRateTx

theorem SameRates.trans {a b c : LibCamCallback S F} (h : SameRates a b) (h' : SameRates b c) :
    SameRates a c :=
  ⟨h'.h264.trans h.h264, h'.lowres.trans h.lowres, h'.h264RateTx.trans h.h264RateTx,
    h'.lowresRateTx.trans h.lowresRateTx⟩

theorem sameRates_findStream (c : LibCamCallback S F) (f : H264Frame S) :
    SameRates c (c.findStream f) := by
  unfold findStream
  split <;> exact ⟨rfl, rfl, rfl, rfl⟩

theorem sameRates_sendPacket (c : LibCamCallback S F) (f : H264Frame S) :
    SameRates c (c.sendPacket I64.wrap f) := by
  unfold sendPacket
  split <;> exact ⟨rfl, rfl, rfl, rfl⟩

/-- What comes before the report of `callbackH264` does not touch the rates. -/
theorem callbackH264_eq (c : LibCamCallback S F) (f : H264Frame S) :
    ∃ c₁, SameRates c c₁ ∧ callbackH264 I64.wrap c f = c₁.reportH264 f.clock := by
  have hfind := sameRates_findStream { c with lastFrame := f.monoMillis } f
  have hsend := sameRates_sendPacket (findStream { c with lastFrame := f.monoMillis } f) f
  exact ⟨_, SameRates.trans ⟨hfind.h264, hfind.lowres, hfind.h264RateTx, hfind.lowresRateTx⟩ hsend,
    rfl⟩

/-- And what comes after that of `callbackLowres`. -/
theorem sameRates_callbackLowres (c : LibCamCallback S F) (f : LowresFrame F) :
    SameRates (c.reportLowres f.clock) (c.callbackLowres f) := by
  unfold callbackLowres sendDetections
  split <;> exact ⟨rfl, rfl, rfl, rfl⟩

end LibCamCallback

/-! ## Runs -/

/-- The callbacks, with ghosts for how often each ran, and for the last reading of its
reporter. -/
structure Camera (S F : Type) where
  callback : LibCamCallback S F
  h264Calls : ℕ
  lowresCalls : ℕ
  h264Now : ℕ
  lowresNow : ℕ

namespace Camera
variable {S F : Type} {s₀ s s' : Camera S F}

inductive Action (S F : Type) where
  | h264 (f : H264Frame S)
  | lowres (f : LowresFrame F)

def step (s : Camera S F) : Action S F → Option (Camera S F)
  | .h264 f =>
      if Ordered s.h264Now f.clock then
        some { s with
          callback := (s.callback.callbackH264 I64.wrap f).run
          h264Calls := s.h264Calls + 1
          h264Now := f.clock.reset }
      else none
  | .lowres f =>
      if Ordered s.lowresNow f.clock then
        some { s with
          callback := s.callback.callbackLowres f
          lowresCalls := s.lowresCalls + 1
          lowresNow := f.clock.reset }
      else none

def start (framerate : UInt8) (tflite : Bool) (nowH264 nowLowres : ℕ) : Camera S F where
  callback := .new framerate tflite nowH264 nowLowres
  h264Calls := 0
  lowresCalls := 0
  h264Now := nowH264
  lowresNow := nowLowres

/-- The runs of a camera. -/
def system (S F : Type) : Transition.System (Camera S F) (Action S F) where
  init s := ∃ framerate tflite nowH264 nowLowres, s = start framerate tflite nowH264 nowLowres
  step := step

/-- The frames in the rates and the frames pending are those of the callbacks so far. -/
structure Accounts (s : Camera S F) : Prop where
  h264 : reported s.callback.h264RateTx + s.callback.h264.reporter.count.toNat = s.h264Calls
  lowres :
    reported s.callback.lowresRateTx + s.callback.lowres.reporter.count.toNat = s.lowresCalls

/-- The callback does not end a window. -/
def KeepsOpen (s : Camera S F) : Action S F → Prop
  | .h264 f => s.callback.h264.reporter.Open f.clock
  | .lowres f => s.callback.lowres.reporter.Open f.clock

/-! ## One callback -/

/-- What a step does to the two reporters and their channels. -/
def Effect (s s' : Camera S F) : Action S F → Prop
  | .h264 f =>
      Ordered s.h264Now f.clock ∧ s'.h264Calls = s.h264Calls + 1 ∧
        s'.lowresCalls = s.lowresCalls ∧
        ∃ c₁, LibCamCallback.SameRates s.callback c₁ ∧ s'.callback = c₁.reportH264 f.clock
  | .lowres f =>
      Ordered s.lowresNow f.clock ∧ s'.lowresCalls = s.lowresCalls + 1 ∧
        s'.h264Calls = s.h264Calls ∧
        LibCamCallback.SameRates (s.callback.reportLowres f.clock) s'.callback

theorem effect_of_step {a : Action S F} (h : s.step a = some s') : s.Effect s' a := by
  cases a with
  | h264 f =>
      obtain ⟨hordered, heq⟩ := Option.ite_none_right_eq_some.mp h
      obtain rfl := Option.some.inj heq
      exact ⟨hordered, rfl, rfl, LibCamCallback.callbackH264_eq s.callback f⟩
  | lowres f =>
      obtain ⟨hordered, heq⟩ := Option.ite_none_right_eq_some.mp h
      obtain rfl := Option.some.inj heq
      exact ⟨hordered, rfl, rfl, LibCamCallback.sameRates_callbackLowres s.callback f⟩

/-- Both reporters report once a second. -/
structure Secs (s : Camera S F) : Prop where
  h264 : s.callback.h264.reporter.reportingSecs = 1
  lowres : s.callback.lowres.reporter.reportingSecs = 1

theorem secs_of_reachable (h : (system S F).Reachable s) : s.Secs := by
  refine h.invariant (I := Secs) ?_ ?_
  · rintro s ⟨framerate, tflite, nowH264, nowLowres, rfl⟩
    exact ⟨rfl, rfl⟩
  · intro s a s' _ hsecs hstep
    have heffect := effect_of_step hstep
    cases a with
    | h264 f =>
        obtain ⟨-, -, -, c₁, hsame, hcallback⟩ := heffect
        constructor
        · rw [hcallback]
          exact (RateReporter.frame_reportingSecs _ _).trans (hsame.h264 ▸ hsecs.h264)
        · rw [hcallback]
          exact hsame.lowres ▸ hsecs.lowres
    | lowres f =>
        obtain ⟨-, -, -, hsame⟩ := heffect
        constructor
        · exact hsame.h264 ▸ hsecs.h264
        · rw [hsame.lowres]
          exact (RateReporter.frame_reportingSecs _ _).trans hsecs.lowres

theorem accounts_step_iff {a : Action S F} (hsecs : s.Secs) (h : s.Accounts)
    (hstep : s.step a = some s') : s'.Accounts ↔ s.KeepsOpen a := by
  have heffect := effect_of_step hstep
  cases a with
  | h264 f =>
      obtain ⟨hordered, hcalls, hother, c₁, hsame, hcallback⟩ := heffect
      have hh264 : reported s'.callback.h264RateTx + s'.callback.h264.reporter.count.toNat =
          s'.h264Calls ↔ s.callback.h264.reporter.Open f.clock := by
        rw [hcalls, ← RateReporter.accounts_frame_iff hsecs.h264 hordered h.h264, ← hsame.h264,
          ← hsame.h264RateTx, hcallback]
        rfl
      have hlowres : reported s'.callback.lowresRateTx +
          s'.callback.lowres.reporter.count.toNat = s'.lowresCalls := by
        rw [hother, ← h.lowres, ← hsame.lowres, ← hsame.lowresRateTx, hcallback]
        rfl
      exact ⟨fun haccounts => hh264.mp haccounts.h264, fun hopen => ⟨hh264.mpr hopen, hlowres⟩⟩
  | lowres f =>
      obtain ⟨hordered, hcalls, hother, hsame⟩ := heffect
      have hh264 : reported s'.callback.h264RateTx + s'.callback.h264.reporter.count.toNat =
          s'.h264Calls := by
        rw [hother, ← h.h264, hsame.h264, hsame.h264RateTx]
        rfl
      have hlowres : reported s'.callback.lowresRateTx +
          s'.callback.lowres.reporter.count.toNat = s'.lowresCalls ↔
            s.callback.lowres.reporter.Open f.clock := by
        rw [hcalls, ← RateReporter.accounts_frame_iff hsecs.lowres hordered h.lowres, hsame.lowres,
          hsame.lowresRateTx]
        rfl
      exact ⟨fun haccounts => hlowres.mp haccounts.lowres, fun hopen => ⟨hh264, hlowres.mpr hopen⟩⟩

/-- Each frame is accounted for all along a run just when no callback of the run ends a
window, and no counter comes to its limit within one. -/
theorem rates_account_iff {as : List (Action S F)} (h₀ : (system S F).init s₀)
    (hrun : Transition.run step s₀ as = some s) :
    (∀ bs t, bs <+: as → Transition.run step s₀ bs = some t → t.Accounts) ↔
      Transition.Always step s₀ as KeepsOpen := by
  have haccounts : s₀.Accounts := by
    obtain ⟨framerate, tflite, nowH264, nowLowres, rfl⟩ := h₀
    exact ⟨rfl, rfl⟩
  apply (system S F).run_forall_iff h₀ haccounts _ hrun
  intro t a t' hreach h hstep
  exact accounts_step_iff (secs_of_reachable hreach) h hstep

/-- A call of `callbackLowres` whose readings are all the same. -/
def lowresAt (now : ℕ) : Action Unit Unit :=
  .lowres
    { clock := { timeToReport := now, rate := now, tick := now, reset := now }
      detected := none }

/-- Two frames within the first second. -/
def openRun : List (Action Unit Unit) := [lowresAt 300000000, lowresAt 600000000]

theorem rates_account_iff_openRun :
    ∃ s, Transition.run step (start 30 true 0 0) openRun = some s ∧ s.lowresCalls = 2 ∧
      ((∀ bs t, bs <+: openRun → Transition.run step (start 30 true 0 0) bs = some t →
          t.Accounts) ↔
        Transition.Always step (start 30 true 0 0) openRun KeepsOpen) :=
  ⟨_, rfl, rfl, rates_account_iff ⟨30, true, 0, 0, rfl⟩ rfl⟩

/-- The second frame ends the window: the rate is that of the first one. -/
def fullSecondRun : List (Action Unit Unit) := [lowresAt 500000000, lowresAt 1000000000]

theorem not_accounts_fullSecondRun :
    ∃ s, Transition.run step (start 30 true 0 0) fullSecondRun = some s ∧ s.lowresCalls = 2 ∧
      reported s.callback.lowresRateTx = 1 ∧ s.callback.lowres.reporter.count = 0 ∧
      ¬ s.Accounts := by
  have hreported : ∀ s, Transition.run step (start 30 true 0 0) fullSecondRun = some s →
      reported s.callback.lowresRateTx = 1 ∧ s.callback.lowres.reporter.count = 0 := by
    intro s hs
    obtain rfl := Option.some.inj hs
    exact ⟨by decide +kernel, by decide +kernel⟩
  refine ⟨_, rfl, rfl, (hreported _ rfl).1, (hreported _ rfl).2, fun h => ?_⟩
  have hlowres := h.lowres
  rw [(hreported _ rfl).1, (hreported _ rfl).2] at hlowres
  exact absurd hlowres (by decide)

end Camera
