-- SUMMARY: One task of the runtime: the stop channel and the hold token that join a `Task` handle to its `TaskContext`.
import AtomRust.Base.Broadcast

/-!
# Tasks

`TaskManager::spawn` gives its caller a `Task` and the spawned future a
`TaskContext`. The two share a stop channel of capacity 1 and a oneshot whose
sender, the token, is dropped with the context; the context also listens on the
stop broadcast of the task manager.

Whether the `Task` itself still exists is known to whoever owns it, so the
functions that depend on it take it as the argument `handle`.
-/

namespace Runtime

/-- The state that a `Task` and its `TaskContext` share. -/
structure TaskState where
  /-- A `()` waits in the stop channel, which has room for one. -/
  stop : Bool
  /-- `Task::hold` is still `Some`. -/
  hold : Bool
  /-- The `TaskContext` exists, and so do the receivers and tokens it owns. Until
  the future is polled for the first time they are owned by the future. -/
  context : Bool
  /-- The position of `stop_all` in the stop broadcast. -/
  stopAllRx : Nat
  deriving DecidableEq, Repr

/-- The branch of the `select!` in `wait_for_stop` that completes. -/
inductive StopSource where
  | stop
  | stopAll
  deriving DecidableEq, Repr

/-- `broadcast::channel(1)` in `TaskManager::new`. -/
def stopAllCapacity : Nat := 1

namespace TaskState

/-- `Task::new` and the context that goes with it. -/
def new (stopAllRx : Nat) : TaskState :=
  { stop := false, hold := true, context := true, stopAllRx }

/-- `Task::none`: nothing to stop and nothing to wait for. A `Task` whose
channels are `None` cannot be told from one whose context is gone and whose hold
was taken. -/
def none : TaskState :=
  { stop := false, hold := false, context := false, stopAllRx := 0 }

/-- `stop.send(()).await` in `Task::stop`. It waits while the channel is full,
and its error, when the receiver is gone, is ignored. -/
def sendStop (t : TaskState) : Option TaskState :=
  if t.context then
    if t.stop then Option.none else some { t with stop := true }
  else some t

/-- `self.hold.take()` in `Task::stop`. -/
def takeHold (t : TaskState) : TaskState := { t with hold := false }

/-- `hold.await` in `Task::stop` is over once the token is dropped. -/
def released (t : TaskState) : Bool := !t.context

/-- The `TaskContext` is dropped, and its fields with it. -/
def dropContext (t : TaskState) : TaskState := { t with context := false, stop := false }

/-- `TaskContext::wait_for_stop` completes through the branch `src`. The stop
channel yields the message in it, or `None` when it is empty and the `Task` is
gone; the broadcast yields a signal or the news that signals were missed, and
either will do. -/
def waitForStop (t : TaskState) (handle : Bool) (stopAll : List Unit) :
    StopSource → Option TaskState
  | .stop =>
      if t.stop then some { t with stop := false }
      else if handle then Option.none else some t
  | .stopAll =>
      (Broadcast.recv stopAllCapacity stopAll t.stopAllRx).map fun r => { t with stopAllRx := r.2 }

@[simp] theorem dropContext_context (t : TaskState) : t.dropContext.context = false := rfl

/-- Asking a task to stop leaves its context and its place in the broadcast
alone. -/
theorem sendStop_frame {t t' : TaskState} (h : t.sendStop = some t') :
    t'.context = t.context ∧ t'.stopAllRx = t.stopAllRx ∧ t'.hold = t.hold := by
  unfold sendStop at h
  split at h
  · split at h
    · cases h
    · cases h; exact ⟨rfl, rfl, rfl⟩
  · cases h; exact ⟨rfl, rfl, rfl⟩

/-- Waiting for a stop keeps the context, and moves forward in the broadcast if
at all. -/
theorem waitForStop_frame {t t' : TaskState} {handle : Bool} {stopAll : List Unit}
    {src : StopSource} (h : t.waitForStop handle stopAll src = some t') :
    t'.context = t.context ∧ t'.hold = t.hold ∧ t.stopAllRx ≤ t'.stopAllRx := by
  cases src with
  | stop =>
      simp only [waitForStop] at h
      split at h
      · cases h; exact ⟨rfl, rfl, Nat.le_refl _⟩
      · split at h
        · cases h
        · cases h; exact ⟨rfl, rfl, Nat.le_refl _⟩
  | stopAll =>
      obtain ⟨r, hr, rfl⟩ := Option.map_eq_some_iff.mp h
      exact ⟨rfl, rfl, Nat.le_of_lt (Broadcast.cursor_of_recv hr).1⟩

/-- A context that has not read the last stop signal can stop waiting. -/
theorem waitForStop_of_lt {t : TaskState} {handle : Bool} {stopAll : List Unit}
    (h : t.stopAllRx < stopAll.length) : (t.waitForStop handle stopAll .stopAll).isSome := by
  rw [waitForStop, Option.isSome_map, Option.isSome_iff_ne_none, Ne, Broadcast.recv_eq_none]
  omega

/-- A context whose `Task` is gone can stop waiting. -/
theorem waitForStop_of_dropped (t : TaskState) (stopAll : List Unit) :
    (t.waitForStop false stopAll .stop).isSome := by
  simp only [waitForStop]
  split <;> rfl

end TaskState

end Runtime
