-- SUMMARY: The handshake of `Task::stop` with the loop of its task: a stopper that has asked is heard, and nobody asks twice.
import AtomRust.Runtime.Task

/-!
# The stop handshake

Every `Task` here has one caller of `stop` at a time, and its future one loop with a
`wait_for_stop` in it. `Served` joins the channel to the two: a message in it is of a
stopper that still waits, and it stays there as long as the loop goes on.
-/

namespace Runtime

/-- Where the caller of `Task::stop` stands. -/
inductive Stopper where
  /-- It has not sent the message yet, or the call is over. -/
  | away
  /-- At `self.hold.take()`. -/
  | takeHold
  /-- At `hold.await`. -/
  | wait
  deriving DecidableEq

namespace TaskState
variable {t t' : TaskState} {stopper : Stopper} {looping handle : Bool} {stopAll : List Unit}
  {src : StopSource}

structure Served (t : TaskState) (stopper : Stopper) (looping : Bool) : Prop where
  message : t.stop = true → t.context = true ∧ stopper ≠ .away
  told : stopper ≠ .away → looping = true → t.stop = true
  hold : t.context = true → t.hold = false → stopper = .wait
  context : looping = true → t.context = true

namespace Served

theorem new (stopAllRx : Nat) (looping : Bool) :
    Served (.new stopAllRx) .away looping := by
  constructor <;> simp [TaskState.new]

theorem none : Served .none .away false := by
  constructor <;> simp [TaskState.none]

/-- The channel has room for the message of a new stopper. -/
theorem sendStop_isSome (h : t.Served .away looping) : t.sendStop.isSome := by
  unfold sendStop
  cases hstop : t.stop with
  | false => split <;> rfl
  | true => exact absurd rfl (h.message hstop).2

theorem sendStop (h : t.Served .away looping) (hs : t.sendStop = some t') :
    t'.Served .takeHold looping := by
  obtain ⟨hcontext, -, hhold⟩ := sendStop_frame hs
  have hstop : t'.stop = t.context := by
    unfold TaskState.sendStop at hs
    cases ht : t.stop with
    | true => simp [h.message ht, ht] at hs
    | false =>
        split at hs
        next hctx => simp only [ht, Bool.false_eq_true, if_false] at hs; cases hs; exact hctx.symm
        next hctx => cases hs; simp [ht, hctx]
  constructor
  · intro hmessage
    exact ⟨hcontext.trans (hstop.symm.trans hmessage), nofun⟩
  · intro _ hlooping
    rw [hstop, h.context hlooping]
  · intro hctx hgone
    exact absurd (h.hold (hcontext ▸ hctx) (hhold ▸ hgone)) nofun
  · intro hlooping
    rw [hcontext, h.context hlooping]

theorem takeHold (h : t.Served .takeHold looping) :
    t.takeHold.Served (if t.hold then .wait else .away) looping := by
  cases hhold : t.hold with
  | true =>
      refine ⟨fun hstop => ⟨(h.message hstop).1, nofun⟩, fun _ => h.told nofun, fun _ _ => rfl,
        h.context⟩
  | false =>
      have hcontext : t.context ≠ true := fun hctx => absurd (h.hold hctx hhold) nofun
      exact ⟨fun hstop => absurd (h.message hstop).1 hcontext, fun hne => absurd rfl hne,
        fun hctx => absurd hctx hcontext, h.context⟩

/-- The stopper returns once the token is dropped. -/
theorem released (h : t.Served .wait looping) (hr : t.released) : t.Served .away looping := by
  have hcontext : t.context ≠ true := by simpa [TaskState.released] using hr
  exact ⟨fun hstop => absurd (h.message hstop).1 hcontext, fun hne => absurd rfl hne,
    fun hctx => absurd hctx hcontext, h.context⟩

theorem of_le {looping' : Bool} (h : t.Served stopper looping)
    (hle : looping' = true → looping = true) : t.Served stopper looping' :=
  ⟨h.message, fun hne hl => h.told hne (hle hl), h.hold, fun hl => h.context (hle hl)⟩

/-- The loop is left. -/
theorem leave (h : t.Served stopper looping) : t.Served stopper false := h.of_le nofun

theorem waitForStop (h : t.Served stopper looping)
    (hw : t.waitForStop handle stopAll src = some t') : t'.Served stopper false := by
  obtain ⟨hcontext, hhold, -⟩ := waitForStop_frame hw
  refine ⟨fun hstop => ?_, nofun, fun hctx hgone => h.hold (hcontext ▸ hctx) (hhold ▸ hgone), nofun⟩
  rw [hcontext]
  apply h.message
  cases src with
  | stop =>
      simp only [TaskState.waitForStop] at hw
      grind
  | stopAll =>
      obtain ⟨r, -, rfl⟩ := Option.map_eq_some_iff.mp hw
      exact hstop

theorem dropContext (t : TaskState) (stopper : Stopper) : t.dropContext.Served stopper false :=
  ⟨nofun, nofun, nofun, nofun⟩

/-- A loop that has been asked to stop does not wait for it. -/
theorem hears (h : t.Served stopper true) (hcaller : stopper ≠ .away) :
    (t.waitForStop handle stopAll .stop).isSome := by
  simp [TaskState.waitForStop, h.told hcaller rfl]

end Served

end TaskState

end Runtime
